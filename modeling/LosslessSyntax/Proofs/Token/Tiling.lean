import LosslessSyntax.Proofs.Token.ByteScanner

/-!
# The tokens of a text tile it

The pieces of a token are its leading trivia, the token itself unless it is the end of the input,
and its trailing trivia. In the order of the stream they are a layout of the text
(`layout_tokenize`): nothing is lost, repeated or moved on the way from the text to its tokens. The
end of the input is the last token and only the last, and it has trivia in no other text than one
that is all trivia (`tokenize_eq_append`).
-/

namespace LosslessSyntax

/-- An item of trivia as a piece of the text. -/
def Trivia.piece (item : Trivia) : Piece :=
  ⟨item.text, item.span⟩

/-- The pieces of the text that a token covers. -/
def Token.pieces (token : Token) : List Piece :=
  token.leading.map Trivia.piece ++
    ((if token.kind = .endToken then [] else [⟨token.value, token.span⟩]) ++
      token.trailing.map Trivia.piece)

/-- A token that is written as its kind demands, if its kind has a spelling. -/
def Token.Spelled (token : Token) : Prop :=
  ∀ text, token.kind.text? = some text → token.value = text

/-! ### Lexemes -/

/-- A lexeme is not the end of the input, and it is written as its kind demands. -/
structure Lexeme.Faithful (cut : Cut TokenKind) : Prop where
  kind_ne : cut.kind ≠ .endToken
  text_eq : ∀ text, cut.kind.text? = some text → String.ofList cut.piece = text

namespace Lexeme

private theorem Faithful.of_text?_eq_none {cut : Cut TokenKind} (hne : cut.kind ≠ .endToken)
    (h : cut.kind.text? = none) : Faithful cut :=
  ⟨hne, fun _ htext => absurd (h.symm.trans htext) nofun⟩

private theorem faithful_number (c : Char) (cs : List Char) : Faithful (number c cs) := by
  unfold number
  split
  · split <;> exact .of_text?_eq_none nofun rfl
  · exact .of_text?_eq_none nofun rfl

private theorem faithful_single (c : Char) (cs : List Char) : Faithful (single c cs) := by
  cases h : TokenKind.punctuation? c with
  | none =>
    have hkind : (single c cs).kind = .badToken := by rw [single, h, Option.getD_none]
    exact .of_text?_eq_none (by rw [hkind]; decide) (by rw [hkind]; rfl)
  | some kind =>
    have hkind : (single c cs).kind = kind := by rw [single, h, Option.getD_some]
    have htext := TokenKind.text?_of_punctuation? h
    refine ⟨fun hend => ?_, fun text ht => ?_⟩
    · rw [← hkind, hend] at htext
      cases htext
    · rw [hkind, htext] at ht
      exact Option.some.inj ht

private theorem faithful_quoted (kind : TokenKind) (hne : kind ≠ .endToken)
    (h : kind.text? = none) (quote : Char) (cs : List Char) :
    Faithful ((quoted? kind quote cs).getD (single quote cs)) := by
  cases hq : quoted? kind quote cs with
  | none => exact faithful_single quote cs
  | some cut =>
    obtain ⟨_, -, rfl⟩ := Option.map_eq_some_iff.1 hq
    exact .of_text?_eq_none hne h

theorem faithful_next (before : Option Char) (c : Char) (cs : List Char) :
    Faithful (next before c cs) := by
  unfold next
  split
  · exact .of_text?_eq_none nofun rfl
  split
  · exact faithful_number c cs
  split
  · exact .of_text?_eq_none nofun rfl
  split
  · exact faithful_quoted .string nofun rfl c cs
  split
  · exact faithful_quoted .char nofun rfl c cs
  · exact faithful_single c cs

end Lexeme

/-! ### Gaps and tokens -/

/-- The items of a gap are a layout of its text. -/
theorem Gap.layout_scan (position : Nat) (cs : List Char) :
    Layout position (scan position cs).piece ((scan position cs).items.map Trivia.piece) := by
  fun_induction scan position cs with
  | case1 position cs h => exact .nil position
  | case2 position cs cut h gap ih => exact .cons (Trivia.of_next? h).piece_ne_nil ih

namespace Token

theorem pieces_endAt (position : Nat) (leading : List Trivia) :
    pieces { endAt position with leading := leading } = leading.map Trivia.piece := by
  simp [pieces, endAt]

theorem pieces_ofCut (position : Nat) {cut : Cut TokenKind} (h : Lexeme.Faithful cut)
    (leading trailing : List Trivia) :
    pieces (ofCut position cut leading trailing) =
      leading.map Trivia.piece ++ (⟨String.ofList cut.piece, position, byteLength cut.piece⟩ ::
        trailing.map Trivia.piece) := by
  simp [pieces, ofCut, h.kind_ne]

/-- The tokens of a text are a layout of it, behind the trivia that the first token brings along. -/
theorem layout_scan (leading : List Trivia) (before : Option Char) (position : Nat)
    (cs : List Char) :
    ∃ pieces, (scan leading before position cs).flatMap Token.pieces =
      leading.map Trivia.piece ++ pieces ∧ Layout position cs pieces := by
  fun_induction scan leading before position cs with
  | case1 leading before position =>
    exact ⟨[], by simp [pieces_endAt], .nil position⟩
  | case2 leading before position c cs lexeme stop gap ih =>
    obtain ⟨pieces, hpieces, hlayout⟩ := ih
    -- The lexeme and the trivia after it make up one token, and no trivia is brought to the next.
    have hlexeme := Lexeme.of_next before c cs
    have htext : lexeme.piece ++ (gap.piece ++ gap.rest) = c :: cs := by
      rw [Gap.scan_append, hlexeme.append_eq]
    refine ⟨⟨String.ofList lexeme.piece, position, byteLength lexeme.piece⟩ ::
      (gap.items.map Trivia.piece ++ pieces), ?_, ?_⟩
    · rw [List.flatMap_cons, pieces_ofCut _ (Lexeme.faithful_next before c cs), hpieces,
        List.map_nil, List.nil_append, List.append_assoc, List.cons_append]
    · rw [← htext]
      exact .cons hlexeme.piece_ne_nil ((Gap.layout_scan stop lexeme.rest).append hlayout)

/-- The end of the input is the last token, and only the last. Trivia that is brought along stays
with it if there is no other token. -/
theorem scan_eq_append (leading : List Trivia) (before : Option Char) (position : Nat)
    (cs : List Char) :
    ∃ body, scan leading before position cs =
      body ++
        [{ endAt (position + byteLength cs) with leading := if cs = [] then leading else [] }] ∧
      (∀ token ∈ body, token.kind ≠ .endToken ∧ token.Spelled) ∧ (cs = [] → body = []) := by
  fun_induction scan leading before position cs with
  | case1 leading before position =>
    exact ⟨[], by simp, fun _ htoken => absurd htoken List.not_mem_nil, fun _ => rfl⟩
  | case2 leading before position c cs lexeme stop gap ih =>
    obtain ⟨body, hscan, hbody, -⟩ := ih
    have hfaithful := Lexeme.faithful_next before c cs
    have htext : lexeme.piece ++ (gap.piece ++ gap.rest) = c :: cs := by
      rw [Gap.scan_append, (Lexeme.of_next before c cs).append_eq]
    have hstop : stop + byteLength gap.piece + byteLength gap.rest =
        position + byteLength (c :: cs) := by
      rw [← htext, byteLength_append, byteLength_append]
      omega
    refine ⟨ofCut position lexeme leading gap.items :: body, ?_, ?_,
      fun h => absurd h (List.cons_ne_nil c cs)⟩
    · rw [hscan, hstop, ite_self, if_neg (List.cons_ne_nil c cs), List.cons_append]
    · exact List.forall_mem_cons.mpr ⟨⟨hfaithful.kind_ne, hfaithful.text_eq⟩, hbody⟩

theorem leading_of_mem_scan (leading : List Trivia) (before : Option Char) (position : Nat)
    (cs : List Char) :
    ∀ token ∈ scan leading before position cs, token.leading = leading ∨ token.leading = [] := by
  fun_induction scan leading before position cs with
  | case1 leading before position => simp
  | case2 leading before position c cs lexeme stop gap ih =>
    refine List.forall_mem_cons.mpr ⟨.inl rfl, fun token htoken => .inr ?_⟩
    exact (ih token htoken).elim id id

/-- No token after the first has leading trivia. -/
theorem leading_of_mem_tail_scan (leading : List Trivia) (before : Option Char) (position : Nat)
    (cs : List Char) : ∀ token ∈ (scan leading before position cs).tail, token.leading = [] := by
  cases cs with
  | nil =>
    rw [scan]
    exact fun _ htoken => absurd htoken List.not_mem_nil
  | cons c cs =>
    rw [scan]
    exact fun token htoken => (leading_of_mem_scan [] _ _ _ token htoken).elim id id

end Token

/-! ### The tokens of a text -/

/-- The pieces of the tokens of a text are a layout of it. -/
theorem layout_tokenize (text : String) :
    Layout 0 text.toList ((tokenize text).flatMap Token.pieces) := by
  have hgap := Gap.layout_scan 0 text.toList
  obtain ⟨pieces, hpieces, hlayout⟩ := Token.layout_scan (Gap.scan 0 text.toList).items
    (Gap.scan 0 text.toList).piece.getLast? (byteLength (Gap.scan 0 text.toList).piece)
    (Gap.scan 0 text.toList).rest
  have := hgap.append (by rwa [Nat.zero_add])
  rwa [Gap.scan_append, ← hpieces] at this

/-- The end of the input is the last token of a text, and only the last. Trivia stands before it if
there is no other token. -/
theorem tokenize_eq_append (text : String) :
    ∃ body leading, tokenize text =
      body ++ [{ Token.endAt text.utf8ByteSize with leading := leading }] ∧
      (∀ token ∈ body, token.kind ≠ .endToken ∧ token.Spelled) ∧ (leading ≠ [] → body = []) := by
  have hsize : byteLength (Gap.scan 0 text.toList).piece +
      byteLength (Gap.scan 0 text.toList).rest = text.utf8ByteSize := by
    rw [← byteLength_append, Gap.scan_append, byteLength_toList]
  obtain ⟨body, hscan, hbody, hnil⟩ := Token.scan_eq_append (Gap.scan 0 text.toList).items
    (Gap.scan 0 text.toList).piece.getLast? (byteLength (Gap.scan 0 text.toList).piece)
    (Gap.scan 0 text.toList).rest
  rw [hsize] at hscan
  refine ⟨body, _, hscan, hbody, fun hleading => ?_⟩
  by_cases hrest : (Gap.scan 0 text.toList).rest = []
  · exact hnil hrest
  · exact absurd (if_neg hrest) hleading

/-- No end of the input comes before the last token of a text. -/
theorem kind_ne_endToken_of_mem_dropLast (text : String) :
    ∀ token ∈ (tokenize text).dropLast, token.kind ≠ .endToken := by
  obtain ⟨body, leading, htokens, hbody, -⟩ := tokenize_eq_append text
  rw [htokens, List.dropLast_concat]
  exact fun token htoken => (hbody token htoken).1

/-- No token of a text after the first has leading trivia. -/
theorem leading_of_mem_tail_tokenize (text : String) :
    ∀ token ∈ (tokenize text).tail, token.leading = [] :=
  Token.leading_of_mem_tail_scan _ _ _ _

/-- The pieces of a token spell it, an end of the input being without text. -/
theorem Token.join_pieces {token : Token} (h : token.kind = .endToken → token.value = "") :
    String.join (token.pieces.map Piece.text) = token.fullText := by
  have hitems : ∀ items : List Trivia, items.map (Piece.text ∘ Trivia.piece) =
    items.map Trivia.text := fun items => rfl
  by_cases hend : token.kind = .endToken
  · simp [pieces, fullText, hitems, hend, h hend]
  · simp [pieces, fullText, hitems, hend, String.append_assoc]

theorem join_pieces {tokens : List Token}
    (h : ∀ token ∈ tokens, token.kind = .endToken → token.value = "") :
    String.join ((tokens.flatMap Token.pieces).map Piece.text) = fullText tokens := by
  induction tokens with
  | nil => rfl
  | cons token tokens ih =>
    obtain ⟨htoken, htokens⟩ := List.forall_mem_cons.mp h
    rw [List.flatMap_cons, List.map_append, String.join_append, Token.join_pieces htoken,
      ih htokens, fullText_cons]

/-- The tokens of a text and their trivia spell the text. -/
theorem fullText_tokens (text : String) : fullText (tokenize text) = text := by
  obtain ⟨body, leading, htokens, hbody, -⟩ := tokenize_eq_append text
  have hvalue : ∀ token ∈ tokenize text, token.kind = .endToken → token.value = "" := by
    intro token htoken hend
    rw [htokens, List.mem_append, List.mem_singleton] at htoken
    rcases htoken with htoken | rfl
    · exact absurd hend (hbody token htoken).1
    · rfl
  rw [← join_pieces hvalue, (layout_tokenize text).join, String.ofList_toList]

/-- **The tokens of a text tile it.** The scan through the bytes of the text, which refuses to take
a part of it inside a character and to stand still, is never refused and finds the tokens. The spans
of the trivia and of the tokens before the end of the input, in the order of the stream, lie one
behind the other from the start of the text to its end, none of them empty. Each stands where its
text is: the slice of the source at the span is defined, so that no span begins or ends inside a
character, and it is the text of the item. The end of the input is the last token and no other; it
is empty, stands at the end of the text, has no trailing trivia, and has leading trivia only where
it is the only token. No token after the first has leading trivia. So the stream spells the text. -/
theorem tokenize_tile (text : String) :
    ByteScanner.tokens? text.toList 0 = some (tokenize text) ∧
      Span.Tile 0 text.utf8ByteSize (((tokenize text).flatMap Token.pieces).map Piece.span) ∧
      (∀ piece ∈ (tokenize text).flatMap Token.pieces,
        (Source.ofString text).slice piece.span = .ok piece.text) ∧
      (∃ body leading, tokenize text =
        body ++ [{ Token.endAt text.utf8ByteSize with leading := leading }] ∧
        (∀ token ∈ body, token.kind ≠ .endToken) ∧ (leading ≠ [] → body = [])) ∧
      (∀ token ∈ (tokenize text).tail, token.leading = []) ∧
      fullText (tokenize text) = text := by
  have hlayout := layout_tokenize text
  refine ⟨ByteScanner.tokens?_eq text, ?_, ?_, ?_, leading_of_mem_tail_tokenize text,
    fullText_tokens text⟩
  · have := hlayout.tile
    rwa [Nat.zero_add, byteLength_toList] at this
  · have := hlayout.slice []
    rwa [List.nil_append, String.ofList_toList] at this
  · obtain ⟨body, leading, htokens, hbody, hleading⟩ := tokenize_eq_append text
    exact ⟨body, leading, htokens, fun token htoken => (hbody token htoken).1, hleading⟩

end LosslessSyntax
