import LosslessSyntax.Proofs.Diagnostic.FirstError
import LosslessSyntax.Proofs.Token.Seam
import LosslessSyntax.Proofs.Tree.Acceptance
import LosslessSyntax.Proofs.Tree.Resemblance

/-!
# Programs one behind the other

Let a text without errors be followed by a line break and by any other text. The tree of the whole
begins with the statements of the first text and goes on with those of the second, moved behind the
first, and its errors are those of the second (`parse_append`).

The tokens of the two texts are in the whole what they are by themselves, up to trivia
(`tokenize_append`), and by their kinds and by what they touch they are alike (`alike_scan_move`,
`alike_of_sameButLast`). So the statements of the first text are canonical over the tokens of the
whole, the parser takes no more than their tokens for them, and goes on as it does with the tokens
of the second text.
-/

namespace LosslessSyntax

/-! ### Moved tokens -/

/-- A span so many bytes further on. -/
def Span.move (offset : Nat) (span : Span) : Span :=
  ⟨span.start + offset, span.length⟩

/-- A token without its trivia, so many bytes further on. -/
def Token.bare (offset : Nat) (token : Token) : Token :=
  { kind := token.kind, value := token.value, span := token.span.move offset }

/-- An error about a token so many bytes further on. -/
def ParseError.move (offset : Nat) (error : ParseError) : ParseError :=
  { error with span := error.span.move offset }

theorem ParseError.move_zero : ParseError.move 0 = id :=
  rfl

namespace Leaf

theorem bare_token (offset : Nat) (leaf : Leaf Token) :
    leaf.token.bare offset = (leaf.map (Token.bare offset)).token := by
  cases leaf with
  | plain token => rfl
  | missing expected token => rfl
  | merged operator first others =>
    simp only [map, token, getLastD_map]
    rfl

theorem error?_map_bare (offset : Nat) (leaf : Leaf Token) :
    (leaf.map (Token.bare offset)).error? = leaf.error?.map (ParseError.move offset) := by
  cases leaf <;> rfl

end Leaf

namespace Parser

/-- The errors of a program are about its tokens wherever these are. -/
theorem diagnostics_map_bare (offset : Nat) (p : Program Token) :
    (p.map (Token.bare offset)).tree.diagnostics =
      p.tree.diagnostics.map (ParseError.move offset) := by
  rw [Program.tree, Program.tree, Program.leaves_map, List.filterMap_map, List.map_filterMap]
  simp only [Function.comp_def, Leaf.error?_map_bare]

/-! ### Alike tokens -/

/-- The tokens of a text that stands elsewhere, behind other text that ends in a word or not. -/
theorem alike_scan_move (offset : Nat) {before before' : Option Char}
    (h : before.any isWord = before'.any isWord) (leading leading' : List Trivia) (position : Nat)
    (cs : List Char) :
    Alike (Token.bare offset) (Token.bare 0) (Token.scan leading before position cs)
      (Token.scan leading' before' (position + offset) cs) := by
  fun_induction Token.scan leading before position cs generalizing before' leading' with
  | case1 =>
    rw [Token.scan]
    exact .singleton rfl rfl
  | @case2 leading before position c cs lexeme stop gap ih =>
    have hnext : Lexeme.next before' c cs = lexeme := (Lexeme.next_congr h c cs).symm
    obtain ⟨hpiece, hrest⟩ := Gap.scan_position (position + offset + byteLength lexeme.piece) stop
      lexeme.rest
    have hempty := Gap.isEmpty_items_position (position + offset + byteLength lexeme.piece) stop
      lexeme.rest
    have hposition : position + offset + byteLength lexeme.piece + byteLength gap.piece =
        stop + byteLength gap.piece + offset := by omega
    rw [Token.scan_cons hnext hpiece hrest leading', hposition]
    refine .cons rfl rfl (fun next hnext next' hnext' _ => ?_) (ih rfl [])
    -- No trivia stands in front of the next token, in either text.
    have hnil : next.leading = [] :=
      (Token.leading_of_mem_scan [] _ _ _ next (List.mem_of_mem_head? hnext)).elim id id
    have hnil' : next'.leading = [] :=
      (Token.leading_of_mem_scan [] _ _ _ next' (List.mem_of_mem_head? hnext')).elim id id
    change (gap.items.isEmpty && next.leading.isEmpty) =
      ((Gap.scan (position + offset + byteLength lexeme.piece) lexeme.rest).items.isEmpty &&
        next'.leading.isEmpty)
    rw [hempty, hnil, hnil']

/-- Trivia behind the last token makes no difference before the end of the input. -/
theorem alike_of_sameButLast {body body' : List Token} (h : SameButLast body body') {last : Token}
    (hlast : last.kind = .endToken) :
    Alike (Token.bare 0) (Token.bare 0) (body ++ [last]) (body' ++ [last]) := by
  have hend : Alike (Token.bare 0) (Token.bare 0) [last] [last] :=
    .singleton rfl rfl
  cases h with
  | nil => exact hend
  | last front token trailing =>
    induction front with
    | nil =>
      refine .cons rfl rfl (fun next hnext _ _ hjoint => ?_) hend
      rw [← Option.mem_some_iff.mp hnext, show kind last = .endToken from hlast] at hjoint
      exact absurd hjoint (not_mem_joints_endToken _)
    | cons first front ih =>
      refine .cons rfl rfl (fun next hnext next' hnext' _ => ?_) ih
      cases front with
      | nil =>
        rw [← Option.mem_some_iff.mp hnext, ← Option.mem_some_iff.mp hnext']
        rfl
      | cons second front =>
        rw [← Option.mem_some_iff.mp hnext, ← Option.mem_some_iff.mp hnext']

end Parser

/-! ### The tokens of the whole -/

/-- A text without errors has no comment that is not closed. -/
theorem error?_eq_none_of_lexicalErrors_eq_nil {tokens : List Token} (h : lexicalErrors tokens = [])
    {token : Token} (htoken : token ∈ tokens) :
    ∀ item ∈ token.leading ++ token.trailing, item.error? = none := by
  have herrors := lexicalErrors_eq_nil_iff.mp h token htoken
  rw [Token.errors, List.append_eq_nil_iff] at herrors
  exact List.filterMap_eq_nil_iff.mp herrors.1

/-- A text whose comments are all closed, a line break and another text: up to the last token the
tokens of the text and the tokens of the whole are alike, and from there on those of the other text,
moved, and those of the whole. -/
theorem tokenize_append_alike {text : String} (h : lexicalErrors (tokenize text) = [])
    (other : String) :
    ∃ body body' others last, tokenize text = body ++ [last] ∧
      tokenize (text ++ "\n" ++ other) = body' ++ others ∧
      last.kind = .endToken ∧ (∀ token ∈ body, token.kind ≠ .endToken) ∧
      Parser.Alike (Token.bare 0) (Token.bare 0) (body ++ [last]) (body' ++ [last]) ∧
      Parser.Alike (Token.bare (text.utf8ByteSize + 1)) (Token.bare 0) (tokenize other) others := by
  obtain ⟨body, body', last, leading, before, htokens, hwhole, hsame, hlast, hbefore⟩ :=
    tokenize_append (fun _ => error?_eq_none_of_lexicalErrors_eq_nil h) other
  refine ⟨body, body', _, last, htokens, hwhole, hlast, ?_,
    Parser.alike_of_sameButLast hsame hlast, ?_⟩
  · obtain ⟨front, trivia, hfront, hkinds, -⟩ := tokenize_eq_append text
    obtain ⟨rfl, -⟩ := List.append_inj' (htokens.symm.trans hfront) rfl
    exact fun token htoken => (hkinds token htoken).1
  · have hmoved := Parser.alike_scan_move (text.utf8ByteSize + 1) hbefore.symm
      (Gap.scan 0 other.toList).items leading (byteLength (Gap.scan 0 other.toList).piece)
      (Gap.scan 0 other.toList).rest
    rwa [Nat.add_comm (byteLength _), Nat.add_assoc] at hmoved

/-! ### The tree of the whole -/

/-- The statements of a text without errors are canonical over any tokens that are alike to its
own. -/
theorem exists_canonical_of_alike {body body' : List Token} {last : Token}
    (hbody : ∀ token ∈ body, token.kind ≠ .endToken) (hlast : last.kind = .endToken)
    (halike : Parser.Alike (Token.bare 0) (Token.bare 0) (body ++ [last]) (body' ++ [last]))
    (hnil : (Parser.program last (body ++ [last])).tree.diagnostics = []) :
    ∃ derivation : List (Statement (Leaf Token)), (∀ s ∈ derivation, s.Canonical) ∧
      derivation.flatMap Statement.parts = body' ∧
      derivation.map (Statement.map (Leaf.map (Token.bare 0))) =
        ((Parser.program last (body ++ [last])).map (Token.bare 0)).statements := by
  have hmap := Parser.map_program (s := last) rfl rfl halike
  have hkinds := halike.map_kind_eq
  rw [List.map_append, List.map_append, List.append_cancel_right_eq] at hkinds
  have hbody' : ∀ token ∈ body', token.kind ≠ .endToken := by
    intro token htoken hend
    have hmem : kind token ∈ body.map kind := hkinds ▸ List.mem_map_of_mem htoken
    obtain ⟨other, hother, hkind⟩ := List.mem_map.mp hmem
    exact hbody other hother (hkind.trans hend)
  have hnil' : (Parser.program last (body' ++ [last])).tree.diagnostics = [] := by
    have hmoved := Parser.diagnostics_map_bare 0 (Parser.program last (body' ++ [last]))
    rw [← hmap, Parser.diagnostics_map_bare, hnil, List.map_nil] at hmoved
    exact List.map_eq_nil_iff.mp hmoved.symm
  obtain ⟨hcanonical, hparts⟩ := Parser.canonical_of_diagnostics_eq_nil hbody' hlast hnil'
  exact ⟨_, hcanonical, hparts, (congrArg Parser.Program.statements hmap).symm⟩

/-- Canonical statements bring no errors to a program. -/
theorem diagnostics_append_of_canonical {derivation : List (Statement (Leaf Token))}
    (h : ∀ s ∈ derivation, s.Canonical) (p : Parser.Program Token) :
    (Parser.Program.mk (derivation ++ p.statements) p.closing).tree.diagnostics =
      p.tree.diagnostics := by
  have hnil : (derivation.flatMap Statement.leaves).filterMap Leaf.error? = [] :=
    List.filterMap_eq_nil_iff.mpr fun leaf hleaf =>
      (Parser.exact_of_mem_leaves h leaf hleaf).error?_eq_none
  simp only [Parser.Program.tree, Parser.Program.leaves, List.flatMap_append, List.append_assoc,
    List.filterMap_append, hnil, List.nil_append]

/-- **Programs compose.** Let a line break and any other text come behind a text without errors. The
statements of the whole are those of the text and then those of the other text, its errors and its
end are those of the other text, and all that is of the other text is moved behind the text and the
break. Only the trivia of tokens may differ. -/
theorem parse_append {text : String} {tree : SyntaxTree} (h : parseStrict text = .ok (.ok tree))
    (other : String) :
    parse (tokenize text) = .ok tree ∧ ∃ second whole, parse (tokenize other) = .ok second ∧
      parse (tokenize (text ++ "\n" ++ other)) = .ok whole ∧
      whole.statements.map (Statement.map (Token.bare 0)) =
        tree.statements.map (Statement.map (Token.bare 0)) ++
          second.statements.map (Statement.map (Token.bare (text.utf8ByteSize + 1))) ∧
      whole.diagnostics = second.diagnostics.map (ParseError.move (text.utf8ByteSize + 1)) ∧
      whole.endOfFile.bare 0 = second.endOfFile.bare (text.utf8ByteSize + 1) := by
  obtain ⟨hlexical, htree, hdiagnostics⟩ := of_parseStrict_eq_ok h
  obtain ⟨body, body', others, last, htokens, hwhole, hlast, hbody, hsame, halike⟩ :=
    tokenize_append_alike hlexical other
  obtain ⟨sentinel, -, -, -, hgetLast, hparse⟩ := exists_program_tokenize text
  rw [htokens, List.getLast?_concat] at hgetLast
  obtain rfl := Option.some.inj hgetLast
  refine ⟨htree, ?_⟩
  rw [hparse, htokens] at htree
  obtain rfl := Except.ok.inj htree
  obtain ⟨derivation, hcanonical, hparts, hderivation⟩ :=
    exists_canonical_of_alike hbody hlast hsame hdiagnostics
  obtain ⟨otherEnd, hotherKind, hotherValue, hotherSpan, -, hother⟩ := exists_program_tokenize other
  obtain ⟨wholeEnd, hwholeKind, hwholeValue, hwholeSpan, -, hparseWhole⟩ :=
    exists_program_tokenize (text ++ "\n" ++ other)
  have hend : otherEnd.bare (text.utf8ByteSize + 1) = wholeEnd.bare 0 := by
    have hsize : (text ++ "\n" ++ other).utf8ByteSize =
        other.utf8ByteSize + (text.utf8ByteSize + 1) := by
      rw [String.utf8ByteSize_append, String.utf8ByteSize_append, Nat.add_comm]
      rfl
    simp only [Token.bare, Span.move, hotherKind, hotherValue, hotherSpan, hwholeKind, hwholeValue,
      hwholeSpan, hsize, Nat.add_zero]
  have hmap := Parser.map_program (hotherKind.trans hwholeKind.symm) hend halike
  -- The parser reads the statements of the text first and is then at the tokens of the other.
  have hprogram := Parser.program_flatMap_append hcanonical wholeEnd others
  rw [hparts, ← hwhole] at hprogram
  rw [hprogram] at hparseWhole
  refine ⟨_, _, hother, hparseWhole, ?_, ?_, ?_⟩
  · rw [(Parser.Program.map_tree (Leaf.bare_token 0) _).1,
      (Parser.Program.map_tree (Leaf.bare_token 0) _).1,
      (Parser.Program.map_tree (Leaf.bare_token _) _).1, hmap, ← hderivation, ← List.map_append]
    simp only [Parser.Program.map, List.map_append]
  · have hmoved := Parser.diagnostics_map_bare 0 (Parser.program wholeEnd others)
    rw [← hmap, Parser.diagnostics_map_bare, ParseError.move_zero, List.map_id] at hmoved
    rw [diagnostics_append_of_canonical hcanonical, hmoved]
  · rw [(Parser.Program.map_tree (Leaf.bare_token 0) _).2,
      (Parser.Program.map_tree (Leaf.bare_token _) _).2, hmap]
    rfl

/-- The tree of a statement with a comment behind it, `a; // x`. -/
def commentedStatement : SyntaxTree where
  statements := [.expression
    (.identifier { kind := .identifier, value := "a", span := ⟨0, 1⟩ })
    { kind := .semicolon, value := ";", span := ⟨1, 1⟩,
      trailing := [⟨.whitespace, " ", ⟨2, 1⟩⟩, ⟨.singleLineComment, "// x", ⟨3, 4⟩⟩] }]
  endOfFile := .endAt 7
  diagnostics := []

theorem parse_append_commentedStatement :
    parseStrict "a; // x" = .ok (.ok commentedStatement) ∧
      parse (tokenize "a; // x") = .ok commentedStatement ∧
      ∃ second whole, parse (tokenize "=$ /*") = .ok second ∧
        parse (tokenize ("a; // x" ++ "\n" ++ "=$ /*")) = .ok whole ∧
        whole.statements.map (Statement.map (Token.bare 0)) =
          commentedStatement.statements.map (Statement.map (Token.bare 0)) ++
            second.statements.map (Statement.map (Token.bare 8)) ∧
        whole.diagnostics = second.diagnostics.map (ParseError.move 8) ∧
        whole.endOfFile.bare 0 = second.endOfFile.bare 8 := by
  have hclean : parseStrict "a; // x" = .ok (.ok commentedStatement) := by decide +kernel
  exact ⟨hclean, parse_append hclean "=$ /*"⟩

end LosslessSyntax
