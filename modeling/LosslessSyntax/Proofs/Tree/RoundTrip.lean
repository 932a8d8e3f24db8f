import LosslessSyntax.Proofs.Token.Tiling
import LosslessSyntax.Proofs.Tree.Conservation

/-!
# The tree of a text spells it

A tree has the text of the tokens that it conserves, as long as each of them is written as its kind
demands (`Conserves.fullText_eq`). What is to be seen is that an operator that the parser puts
together is written as its parts are. The tokens of a text are so written, the parser uses all of
them, and the copies of the sentinel that it uses besides have no text: trivia comes with the
sentinel only where there is no other token, and then the parser uses it once
(`exists_takeD_taken_tokenize`). Hence the round trip `parse_tokenize_fullText`.
-/

namespace LosslessSyntax

/-! ### Operators that are put together -/

/-- Tokens without trivia between them spell the trivia before the first, the tokens themselves, and
the trivia behind the last. -/
private theorem fullText_of_isChain {first last : Token} {others : List Token}
    (htouch : (first :: others).IsChain fun a b => a.trailing = [] ∧ b.leading = [])
    (hlast : (first :: others).getLast? = some last) :
    fullText (first :: others) =
      String.join (first.leading.map Trivia.text) ++
        String.join ((first :: others).map Token.value) ++
        String.join (last.trailing.map Trivia.text) := by
  induction others generalizing first with
  | nil =>
    obtain rfl := Option.some.inj hlast
    simp [fullText_cons, Token.fullText]
  | cons second others ih =>
    obtain ⟨⟨htrailing, hleading⟩, hchain⟩ := List.isChain_cons_cons.mp htouch
    rw [fullText_cons, ih hchain (by rwa [List.getLast?_cons_cons] at hlast), Token.fullText,
      htrailing, hleading]
    simp [String.append_assoc]

/-- A compound operator is written as the kinds that spell it are, one after the other. -/
private theorem text?_of_mem_compoundOperators {spelling : List TokenKind} {operator : TokenKind}
    (h : (spelling, operator) ∈ compoundOperators) :
    operator.text? = some (String.join (spelling.map fun kind => kind.text?.getD "")) ∧
      ∀ kind ∈ spelling, kind.text?.isSome := by
  have hall : ∀ compound ∈ compoundOperators,
      compound.2.text? = some (String.join (compound.1.map fun kind => kind.text?.getD "")) ∧
        ∀ kind ∈ compound.1, kind.text?.isSome := by decide
  exact hall _ h

/-- The tokens that spell a compound operator have its text, if they have that of their kinds. -/
theorem join_value_of_mem_compoundOperators {tokens : List Token} {operator : TokenKind}
    {text : String} (h : (tokens.map Token.kind, operator) ∈ compoundOperators)
    (htext : operator.text? = some text) (hspelled : ∀ token ∈ tokens, token.Spelled) :
    String.join (tokens.map Token.value) = text := by
  obtain ⟨hoperator, hkinds⟩ := text?_of_mem_compoundOperators h
  have hvalue : ∀ token ∈ tokens, token.value = token.kind.text?.getD "" := by
    intro token htoken
    obtain ⟨value, hkind⟩ := Option.isSome_iff_exists.mp (hkinds _ (List.mem_map_of_mem htoken))
    rw [hspelled token htoken value hkind, hkind, Option.getD_some]
  rw [htext, List.map_map] at hoperator
  rw [Option.some.inj hoperator, List.map_congr_left hvalue]
  rfl

/-- A tree has the text of the tokens that it conserves. -/
theorem Conserves.fullText_eq {used tokens : List Token} {errors : List ParseError}
    (h : Conserves used tokens errors) (hspelled : ∀ token ∈ used, token.Spelled) :
    fullText tokens = fullText used := by
  induction h with
  | nil => rfl
  | unchanged _ _ ih =>
    rw [fullText_cons, fullText_cons, ih (List.forall_mem_cons.mp hspelled).2]
  | @missing token _ _ _ _ _ _ ih =>
    -- The text of a token does not depend on its kind.
    rw [fullText_cons, fullText_cons token, ih (List.forall_mem_cons.mp hspelled).2]
    rfl
  | @compound operator text first last others used tokens errors hspelling _ htouch hlast htext _
      ih =>
    obtain ⟨hparts, hused⟩ := List.forall_mem_append.mp hspelled
    rw [fullText_append, fullText_of_isChain htouch hlast, fullText_cons, ih hused, Token.fullText,
      join_value_of_mem_compoundOperators hspelling htext hparts]

/-! ### The sentinel of a text -/

/-- The end of the input that stands behind the tokens of a text is the last of them. -/
theorem sentinelOf_tokenize (text : String) {body : List Token} {leading : List Trivia}
    (h : tokenize text = body ++ [{ Token.endAt text.utf8ByteSize with leading := leading }])
    (hleading : leading ≠ [] → body = []) :
    sentinelOf (tokenize text) =
      .ok { Token.endAt text.utf8ByteSize with leading := leading } := by
  have hstart : (leading.head?.map fun item => item.span.start).getD text.utf8ByteSize ≤
      text.utf8ByteSize := by
    cases leading with
    | nil => exact Nat.le_refl _
    | cons item leading =>
      -- The trivia of the only token is the whole text, hence its first item starts at zero.
      have hlayout := (layout_tokenize text).tile
      rw [h, hleading nofun, List.nil_append, List.flatMap_singleton, Token.pieces_endAt] at hlayout
      generalize 0 + byteLength text.toList = stop at hlayout
      cases hlayout with
      | cons hitem => exact hitem.trans_le (Nat.zero_le _)
  have hspan :
      ({ Token.endAt text.utf8ByteSize with leading := leading } : Token).fullSpan = .ok _ :=
    (Token.fullSpan_exact _).trans (Span.ofBounds_of_le hstart)
  rw [h, sentinelOf_append_singleton, hspan]
  rfl

/-- Copies of a sentinel are written as their kind demands if it is. -/
theorem spelled_append_replicate {tokens : List Token} {sentinel : Token}
    (h : ∀ token ∈ tokens, token.Spelled) (hsentinel : sentinel.Spelled) (n : Nat) :
    ∀ token ∈ tokens ++ List.replicate n sentinel, token.Spelled := by
  refine List.forall_mem_append.mpr ⟨h, fun token htoken => ?_⟩
  rw [List.eq_of_mem_replicate htoken]
  exact hsentinel

/-- The parser uses the tokens of a text, and copies of the sentinel unless it has trivia. -/
theorem exists_takeD_eq_append_replicate (text : String) :
    ∃ (sentinel : Token) (n : Nat), sentinelOf (tokenize text) = .ok sentinel ∧
      (tokenize text).takeD (Parser.taken sentinel (tokenize text)) sentinel =
        tokenize text ++ List.replicate n sentinel ∧
      (n = 0 ∨ sentinel = .endAt text.utf8ByteSize) ∧
      ∀ token ∈ tokenize text ++ List.replicate n sentinel, token.Spelled := by
  obtain ⟨body, leading, htokens, hbody, hleading⟩ := tokenize_eq_append text
  have hsentinel := sentinelOf_tokenize text htokens hleading
  generalize hs : ({ Token.endAt text.utf8ByteSize with leading := leading } : Token) = sentinel
    at htokens hsentinel
  have hspelled : sentinel.Spelled := by
    rw [← hs]
    exact fun _ => nofun
  have hall : ∀ n, ∀ token ∈ tokenize text ++ List.replicate n sentinel, token.Spelled := by
    refine spelled_append_replicate ?_ hspelled
    rw [htokens]
    exact List.forall_mem_append.mpr
      ⟨fun token htoken => (hbody token htoken).2, List.forall_mem_singleton.mpr hspelled⟩
  by_cases hnil : leading = []
  · have hlength : (tokenize text).length ≤ Parser.taken sentinel (tokenize text) :=
      Parser.length_le_taken sentinel (kind_ne_endToken_of_mem_dropLast text)
    refine ⟨sentinel, _, hsentinel, Parser.takeD_eq_append_replicate hlength sentinel, .inr ?_,
      hall _⟩
    rw [← hs, hnil]
    rfl
  -- With trivia it is the only token and is used once.
  · rw [hleading hnil, List.nil_append] at htokens
    have hkind : sentinel.kind = .endToken := by rw [← hs]; rfl
    refine ⟨sentinel, 0, hsentinel, ?_, .inl rfl, hall 0⟩
    rw [htokens, Parser.taken_of_kind_eq_endToken sentinel hkind]
    rfl

/-- The parser uses the tokens of a text, and copies of the sentinel that have no text. -/
theorem exists_takeD_taken_tokenize (text : String) :
    ∃ sentinel copies, sentinelOf (tokenize text) = .ok sentinel ∧
      (tokenize text).takeD (Parser.taken sentinel (tokenize text)) sentinel =
        tokenize text ++ copies ∧
      fullText copies = "" ∧ ∀ token ∈ tokenize text ++ copies, token.Spelled := by
  obtain ⟨sentinel, n, hsentinel, htakeD, hcopies, hspelled⟩ :=
    exists_takeD_eq_append_replicate text
  refine ⟨sentinel, _, hsentinel, htakeD, ?_, hspelled⟩
  rcases hcopies with rfl | rfl
  · rfl
  · exact fullText_replicate rfl n

/-- The tree of a text is that of its program, behind which the end of the text stands. -/
theorem exists_program_tokenize (text : String) :
    ∃ sentinel : Token, sentinel.kind = .endToken ∧ sentinel.value = "" ∧
      sentinel.span = ⟨text.utf8ByteSize, 0⟩ ∧ (tokenize text).getLast? = some sentinel ∧
      parse (tokenize text) = .ok (Parser.program sentinel (tokenize text)).tree := by
  obtain ⟨body, leading, htokens, -, hleading⟩ := tokenize_eq_append text
  refine ⟨_, rfl, rfl, rfl, ?_, parse_of_sentinelOf (sentinelOf_tokenize text htokens hleading)⟩
  rw [htokens, List.getLast?_concat]

theorem exists_parse_tokenize (text : String) : ∃ tree, parse (tokenize text) = .ok tree := by
  obtain ⟨_, -, -, -, -, hparse⟩ := exists_program_tokenize text
  exact ⟨_, hparse⟩

/-! ### The round trip -/

/-- **Round trip.** Parsing the tokens of a text succeeds, whatever the text is, and the tree that
results spells the text. -/
theorem parse_tokenize_fullText (text : String) :
    ∃ tree, parse (tokenize text) = .ok tree ∧ tree.fullText = text := by
  obtain ⟨sentinel, copies, hsentinel, htaken, hcopies, hspelled⟩ :=
    exists_takeD_taken_tokenize text
  have hconserves := conserves_tree sentinel (tokenize text)
  rw [htaken] at hconserves
  refine ⟨_, parse_of_sentinelOf hsentinel, ?_⟩
  rw [SyntaxTree.fullText, hconserves.fullText_eq hspelled, fullText_append, hcopies,
    fullText_tokens, String.append_empty]

end LosslessSyntax
