import LosslessSyntax.Proofs.Token.LineBreaks
import LosslessSyntax.Proofs.Tree.Positions

/-!
# Trees and line breaks

A text and the text of its lines joined by line feeds have the same tree, up to what tells how the
breaks are written (`parse_unified`). The outlines of tokens hold all that the parser sees, so their
streams are alike; and of a leaf that is made of some tokens the outline is known from theirs.
-/

namespace LosslessSyntax

/-- The outline of a leaf, by the outlines of its tokens. -/
def Leaf.outline : Leaf Token.Outline → Token.Outline
  | plain token => token
  | missing _ token => { token with kind := .missingToken }
  | merged operator first others =>
    { kind := operator
      value := operator.text?.getD ""
      leading := first.leading
      trailing := (others.getLastD first).trailing
      place := first.place }

theorem Leaf.outline_token (source : Source) (leaf : Leaf Token) :
    leaf.token.outline source = (leaf.map (Token.outline source)).outline := by
  cases leaf with
  | plain token => rfl
  | missing expected token => rfl
  | merged operator first others =>
    simp only [map, outline, getLastD_map]
    rfl

/-- What an error says, and the place of its token in a source. -/
def ParseError.outline (source : Source) (error : ParseError) :
    List TokenKind × TokenKind × LinePosition :=
  (error.expected, error.found, source.linePosition error.span.start)

/-- Streams with the same outlines are alike. -/
theorem Parser.alike_of_map_outline {source source' : Source} {tokens others : List Token}
    (h : tokens.map (Token.outline source) = others.map (Token.outline source')) :
    Alike (Token.outline source) (Token.outline source') tokens others := by
  refine .of_map_eq (fun t u htu => congrArg Token.Outline.kind htu)
    (fun t u t' u' htu htu' => ?_) h
  have htrailing := congrArg List.isEmpty (congrArg Token.Outline.trailing htu)
  have hleading := congrArg List.isEmpty (congrArg Token.Outline.leading htu')
  simp only [Token.outline, List.isEmpty_map] at htrailing hleading
  change (t.trailing.isEmpty && t'.leading.isEmpty) = (u.trailing.isEmpty && u'.leading.isEmpty)
  rw [htrailing, hleading]

/-- **How breaks are written makes no difference.** Join the texts of the lines of a source by line
feeds. The tokens of the text that comes of it are as many as those of the source, and one by one
they have the same kind and text, have trivia of the same kinds around them, and begin at the same
line and column. The two trees have the same shape, again with such tokens, and their errors expect
and find the same kinds at the same lines and columns. -/
theorem parse_unified (text : String) :
    ∃ unified tree tree', (Source.ofString text).unified = .ok unified ∧
      parse (tokenize text) = .ok tree ∧ parse (tokenize unified) = .ok tree' ∧
      (tokenize unified).map (Token.outline (.ofString unified)) =
        (tokenize text).map (Token.outline (.ofString text)) ∧
      tree'.statements.map (Statement.map (Token.outline (.ofString unified))) =
        tree.statements.map (Statement.map (Token.outline (.ofString text))) ∧
      tree'.endOfFile.outline (.ofString unified) = tree.endOfFile.outline (.ofString text) ∧
      tree'.diagnostics.map (ParseError.outline (.ofString unified)) =
        tree.diagnostics.map (ParseError.outline (.ofString text)) := by
  have htokens := map_outline_tokenize text
  obtain ⟨sentinel, hkind, hvalue, hspan, hlast, hparse⟩ := exists_program_tokenize text
  obtain ⟨sentinel', hkind', hvalue', hspan', hlast', hparse'⟩ :=
    exists_program_tokenize (String.ofList (unifyBreaks text.toList))
  refine ⟨_, _, _, Source.unified_ofString text, hparse, hparse', htokens, ?_⟩
  have hends := congrArg List.getLast? htokens
  rw [List.getLast?_map, List.getLast?_map, hlast, hlast'] at hends
  have hmap := Parser.map_program (hkind'.trans hkind.symm) (Option.some.inj hends)
    (Parser.alike_of_map_outline htokens)
  refine ⟨?_, ?_, ?_⟩
  · rw [(Parser.Program.map_tree (Leaf.outline_token _) _).1, hmap,
      (Parser.Program.map_tree (Leaf.outline_token _) _).1]
  · rw [(Parser.Program.map_tree (Leaf.outline_token _) _).2, hmap,
      (Parser.Program.map_tree (Leaf.outline_token _) _).2]
  · let shown (unexpected : Unexpected Token.Outline) :=
      (unexpected.expected, unexpected.found.kind, unexpected.found.place)
    rw [Parser.Program.map_diagnostics_tree (Token.outline _) shown (fun _ => rfl), hmap,
      Parser.Program.map_diagnostics_tree (Token.outline _) shown (fun _ => rfl)]

end LosslessSyntax
