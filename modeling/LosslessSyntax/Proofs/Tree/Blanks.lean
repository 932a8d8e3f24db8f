import LosslessSyntax.Proofs.Token.Munch
import LosslessSyntax.Proofs.Tree.Foreign
import LosslessSyntax.Proofs.Tree.RoundTrip

/-!
# Blank tokens

The lexer makes no blank tokens, but a stream may hold some. The parser looks past them in one place
only, where it decides whether a statement is a declaration (`Parser.significantKind`). Wherever it
takes a token it takes a blank one as well, and as no grammar rule expects a blank token, each of
them is reported as an error in its place.

So blank tokens that are put between the tokens of a text are never without effect: the errors stay
what they are only if no token was put in (`parse_interspersed`). A declaration with a blank token
between its type and its name is no longer a declaration without errors
(`parse_interspersed_declaration`).
-/

namespace LosslessSyntax

/-! ### Blank tokens in any stream -/

theorem foreign_isTrivia : Foreign TokenKind.isTrivia where
  tree := by decide
  operator := by decide

/-- There are as many errors about blank tokens as there are blank tokens. -/
theorem countP_isTrivia_diagnostics {tokens : List Token} {tree : SyntaxTree}
    (h : parse tokens = .ok tree) (hend : ∀ token ∈ tokens.dropLast, token.kind ≠ .endToken) :
    tree.diagnostics.countP (·.found.isTrivia) = tokens.countP (·.kind.isTrivia) := by
  have hlength := congrArg List.length (map_filter_diagnostics foreign_isTrivia h hend)
  rwa [List.length_map, ← List.countP_eq_length_filter, List.length_map,
    ← List.countP_eq_length_filter] at hlength

/-! ### Blank tokens between the tokens of a text -/

namespace Lexeme

/-- The lexer makes no blank tokens. -/
theorem isTrivia_kind_next (before : Option Char) (c : Char) (cs : List Char) :
    (next before c cs).kind.isTrivia = false := by
  rcases next_cases before c cs with hmem | hsingle
  · have hall : ∀ kind ∈ [TokenKind.identifier, .integer, .float, .string, .char],
        kind.isTrivia = false := by decide
    exact hall _ hmem
  · rw [hsingle, single]
    cases h : TokenKind.punctuation? c with
    | none => rfl
    | some kind =>
      -- Punctuation has a spelling, which blank tokens do not.
      have htext := TokenKind.text?_of_punctuation? h
      cases kind <;> first | rfl | cases htext

end Lexeme

theorem Token.isTrivia_eq_false_of_mem_scan (leading : List Trivia) (before : Option Char)
    (position : Nat) (cs : List Char) :
    ∀ token ∈ scan leading before position cs, token.kind.isTrivia = false := by
  fun_induction scan leading before position cs with
  | case1 leading before position => exact List.forall_mem_singleton.mpr rfl
  | case2 leading before position c cs lexeme stop gap ih =>
    exact List.forall_mem_cons.mpr ⟨Lexeme.isTrivia_kind_next before c cs, ih⟩

/-- Blank tokens put in front of some tokens of a stream, but in front of none that the token before
it touches. -/
inductive Interspersed : List Token → List Token → Prop
  | last {blanks : List Token} (hblanks : ∀ blank ∈ blanks, blank.kind.isTrivia = true)
      (token : Token) : Interspersed [token] (blanks ++ [token])
  | cons {blanks tokens others : List Token} {token next : Token}
      (hblanks : ∀ blank ∈ blanks, blank.kind.isTrivia = true)
      (htouches : token.touches next = true → others.head? = some next)
      (h : Interspersed (next :: tokens) others) :
      Interspersed (token :: next :: tokens) (blanks ++ token :: others)

namespace Interspersed

variable {tokens others : List Token}

/-- Without the blank tokens it is the stream that it was. -/
theorem filter_eq (h : Interspersed tokens others)
    (htokens : ∀ token ∈ tokens, token.kind.isTrivia = false) :
    (others.filter fun token => !token.kind.isTrivia) = tokens := by
  have hnil {blanks : List Token} (hblanks : ∀ blank ∈ blanks, blank.kind.isTrivia = true) :
      (blanks.filter fun token => !token.kind.isTrivia) = [] :=
    List.filter_eq_nil_iff.mpr fun blank hblank => by simp [hblanks blank hblank]
  induction h with
  | last hblanks token =>
    rw [List.filter_append, hnil hblanks, List.nil_append]
    simpa using htokens
  | cons hblanks _ _ ih =>
    obtain ⟨htoken, htokens⟩ := List.forall_mem_cons.mp htokens
    rw [List.filter_append, hnil hblanks, List.nil_append,
      List.filter_cons_of_pos (by simp [htoken]), ih htokens]

/-- The last token is the last one still, and in front of it stand tokens of the stream and blank
ones. -/
theorem exists_append (h : Interspersed tokens others) :
    ∃ front front' last, tokens = front ++ [last] ∧ others = front' ++ [last] ∧
      ∀ token ∈ front', token ∈ front ∨ token.kind.isTrivia = true := by
  induction h with
  | last hblanks token =>
    exact ⟨[], _, token, rfl, rfl, fun blank hblank => .inr (hblanks blank hblank)⟩
  | @cons blanks _ _ token _ hblanks _ _ ih =>
    obtain ⟨front, front', last, htokens, rfl, hfront'⟩ := ih
    refine ⟨token :: front, blanks ++ token :: front', last, ?_, ?_, ?_⟩
    · rw [htokens, List.cons_append]
    · rw [List.append_assoc, List.cons_append]
    · refine List.forall_mem_append.mpr ⟨fun blank hblank => .inr (hblanks blank hblank),
        List.forall_mem_cons.mpr ⟨.inl List.mem_cons_self, fun other hother => ?_⟩⟩
      exact (hfront' other hother).imp_left (List.mem_cons_of_mem token)

end Interspersed

/-- **Blank tokens are errors.** Put blank tokens between the tokens of a text, in front of any but
the ones that the token before them touches. The stream is parsed, and each blank token is reported
as an error, in order. What is expected and found at the errors is as it is for the text by itself
exactly if no token was put in. -/
theorem parse_interspersed {text : String} {tokens : List Token}
    (h : Interspersed (tokenize text) tokens) :
    ∃ tree tree', parse (tokenize text) = .ok tree ∧ parse tokens = .ok tree' ∧
      (tree'.diagnostics.filter (·.found.isTrivia)).map (fun error => (error.found, error.span)) =
        (tokens.filter (·.kind.isTrivia)).map (fun token => (token.kind, token.span)) ∧
      (tree'.diagnostics.map (fun error => (error.expected, error.found)) =
        tree.diagnostics.map (fun error => (error.expected, error.found)) ↔
          tokens = tokenize text) := by
  have hnone : ∀ token ∈ tokenize text, token.kind.isTrivia = false :=
    Token.isTrivia_eq_false_of_mem_scan _ _ _ _
  have hfilter := h.filter_eq hnone
  obtain ⟨tree, htree⟩ := exists_parse_tokenize text
  obtain ⟨sentinel, hsentinel, -⟩ := exists_program_of_parse htree
  obtain ⟨body, leading, hbody, hkinds, -⟩ := tokenize_eq_append text
  obtain ⟨front, front', last, htokens, rfl, hfront'⟩ := h.exists_append
  obtain ⟨rfl, -⟩ := List.append_inj' (hbody.symm.trans htokens) rfl
  -- What stands behind a stream is decided by its last token.
  have hsentinel' : sentinelOf (front' ++ [last]) = .ok sentinel := by
    rw [← hsentinel, htokens, sentinelOf, sentinelOf, List.getLast?_concat, List.getLast?_concat]
  have hends : ∀ token ∈ (front' ++ [last]).dropLast, token.kind ≠ .endToken := by
    rw [List.dropLast_concat]
    intro token htoken
    rcases hfront' token htoken with hmem | hblank
    · exact (hkinds token hmem).1
    · intro hend
      rw [hend] at hblank
      cases hblank
  have hblanks := map_filter_diagnostics foreign_isTrivia (parse_of_sentinelOf hsentinel') hends
  refine ⟨tree, _, htree, parse_of_sentinelOf hsentinel', hblanks, fun herrors => ?_,
    fun hsame => ?_⟩
  -- The text by itself has no errors about blank tokens, hence there are none, and no blank tokens.
  · have hends' := kind_ne_endToken_of_mem_dropLast text
    have hcount := congrArg (List.countP fun error => error.2.isTrivia) herrors
    rw [List.countP_map, List.countP_map] at hcount
    have hzero : (front' ++ [last]).countP (·.kind.isTrivia) = 0 := by
      rw [← countP_isTrivia_diagnostics (parse_of_sentinelOf hsentinel') hends]
      refine (hcount.trans (countP_isTrivia_diagnostics htree hends')).trans ?_
      exact List.countP_eq_zero.mpr fun token htoken => by simp [hnone token htoken]
    rw [List.countP_eq_zero] at hzero
    refine Eq.trans ?_ hfilter
    exact (List.filter_eq_self.mpr fun token htoken => by simpa using hzero token htoken).symm
  · have := htree
    rw [← hsame, parse_of_sentinelOf hsentinel'] at this
    rw [Except.ok.inj this]

/-- A declaration with a blank token between its type and its name. -/
def interspersedDeclaration : List Token :=
  let gap : List Trivia := [⟨.whitespace, " ", ⟨3, 1⟩⟩]
  [{ kind := .identifier, value := "int", span := ⟨0, 3⟩, trailing := gap },
    { kind := .whitespace, value := "int", span := ⟨0, 3⟩, trailing := gap },
    { kind := .identifier, value := "x", span := ⟨4, 1⟩ },
    { kind := .semicolon, value := ";", span := ⟨5, 1⟩ }, .endAt 6]

/-- The blank token was put in where no two tokens touch. -/
private theorem interspersed_interspersedDeclaration :
    Interspersed (tokenize "int x;") interspersedDeclaration := by
  have htokens : tokenize "int x;" = interspersedDeclaration.eraseIdx 1 := by decide +kernel
  have hend : Interspersed [Token.endAt 6] [.endAt 6] :=
    .last (List.forall_mem_nil _) (.endAt 6)
  have hsemicolon :
      Interspersed (interspersedDeclaration.drop 3) (interspersedDeclaration.drop 3) :=
    .cons (List.forall_mem_nil _) (fun _ => rfl) hend
  have hname : Interspersed (interspersedDeclaration.drop 2) (interspersedDeclaration.drop 1) :=
    .cons (List.forall_mem_singleton.mpr rfl) (fun _ => rfl) hsemicolon
  rw [htokens]
  exact .cons (List.forall_mem_nil _) (fun htouches => absurd htouches (by decide)) hname

/-- `parse_interspersed` at a declaration with one blank token in it. -/
theorem parse_interspersed_spacedDeclaration :
    Interspersed (tokenize "int x;") interspersedDeclaration ∧
      ∃ tree tree', parse (tokenize "int x;") = .ok tree ∧
        parse interspersedDeclaration = .ok tree' ∧
        (tree'.diagnostics.filter (·.found.isTrivia)).map
            (fun error => (error.found, error.span)) = [(.whitespace, ⟨0, 3⟩)] ∧
        tree'.diagnostics.map (fun error => (error.expected, error.found)) ≠
          tree.diagnostics.map (fun error => (error.expected, error.found)) := by
  refine ⟨interspersed_interspersedDeclaration, ?_⟩
  obtain ⟨tree, tree', htree, htree', hblanks, hiff⟩ :=
    parse_interspersed interspersed_interspersedDeclaration
  exact ⟨tree, tree', htree, htree', hblanks.trans rfl,
    fun hsame => absurd (hiff.mp hsame) (by decide +kernel)⟩

/-- The declaration has no errors without the blank token, and four with it. -/
theorem parse_interspersed_declaration :
    Interspersed (tokenize "int x;") interspersedDeclaration ∧
      (parse (tokenize "int x;")).map SyntaxTree.diagnostics = .ok [] ∧
      (parse interspersedDeclaration).map SyntaxTree.diagnostics =
        .ok [⟨[.identifier], .whitespace, ⟨0, 3⟩⟩, ⟨[.semicolon], .identifier, ⟨4, 1⟩⟩,
          ⟨literalKinds, .semicolon, ⟨5, 1⟩⟩, ⟨[.semicolon], .endToken, ⟨6, 0⟩⟩] :=
  ⟨interspersed_interspersedDeclaration, by decide +kernel, by decide +kernel⟩

end LosslessSyntax
