import LosslessSyntax.Proofs.Tree.Conservation
import LosslessSyntax.Proofs.Tree.Shape

/-!
# Trees of any stream

A tree is well shaped whatever it was parsed from: recovery puts missing tokens where others had to
come, and nothing else. There is one place at which not any token can be the one that is missing. A
block goes on up to a closing brace or an end of the input, hence its closing brace is missing only
where the stream had an end of the input (`endToken_of_mem_closings`). This is said of the leaves
of the tree, which still know the tokens that they are made of.
-/

namespace LosslessSyntax

/-! ### Closing braces -/

namespace Statement

variable {τ : Type}

mutual

/-- The closing braces of the blocks in a statement. -/
def closings : Statement τ → List τ
  | block _ body closing => closingsOfAll body ++ [closing]
  | expression .. | declaration .. | initialization .. => []

/-- The closing braces of the blocks in some statements. -/
def closingsOfAll : List (Statement τ) → List τ
  | [] => []
  | statement :: others => closings statement ++ closingsOfAll others

end

theorem closingsOfAll_eq_flatMap (statements : List (Statement τ)) :
    closingsOfAll statements = statements.flatMap closings := by
  induction statements with
  | nil => rfl
  | cons statement others ih => rw [closingsOfAll, ih, List.flatMap_cons]

end Statement

namespace Parser

variable {α : Type} [Readable α]

/-- A leaf that is missing only where the stream had an end of the input. -/
def MissingAtEnd (leaf : Leaf α) : Prop :=
  leaf.kind = .missingToken → ∃ t, leaf.parts = [t] ∧ kind t = .endToken

theorem missingAtEnd_expect {sentinel : α} (hsentinel : kind sentinel = .endToken) {ts : List α}
    (h : ∀ t ∈ ts.head?, kind t ∈ [.rightCurlyBrace, .endToken]) :
    MissingAtEnd (expect sentinel [.rightCurlyBrace] ts).value := by
  have hhead : kind (ts.headD sentinel) ∈ [TokenKind.rightCurlyBrace, .endToken] := by
    cases ts with
    | nil =>
      rw [List.headD_nil, hsentinel]
      decide
    | cons t ts => exact h t rfl
  intro hmissing
  simp only [expect] at hmissing ⊢
  split
  · next hmem =>
    rw [if_pos hmem] at hmissing
    cases hmissing.symm.trans (List.mem_singleton.mp hmem)
  · next hmem =>
    exact ⟨_, rfl, List.mem_singleton.mp ((List.mem_cons.mp hhead).resolve_left
      fun hbrace => hmem (List.mem_singleton.mpr hbrace))⟩

private theorem closings_declaration (sentinel t : α) (ts : List α) :
    (declaration sentinel t ts).value.closings = [] := by
  cases hequals : equals? (ts.drop 1) with
  | none =>
    rw [declaration_of_equals?_eq_none hequals]
    rfl
  | some equals =>
    rw [declaration_of_equals?_eq_some hequals]
    rfl

private theorem closings_blockOf (sentinel t : α) (ts : List α)
    (body : List (Parsed α (Statement (Leaf α)))) :
    (blockOf sentinel t ts body).value.closings =
      (body.flatMap fun p => p.value.closings) ++
        [(expect sentinel [.rightCurlyBrace] (ts.drop (Parsed.total body))).value] := by
  simp only [blockOf, Statement.closings, Statement.closingsOfAll_eq_flatMap, List.flatMap_map]

/-- The closing brace of a block is missing only where the stream had an end of the input. -/
theorem endToken_of_mem_closings {sentinel : α} (hsentinel : kind sentinel = .endToken)
    {closers : List TokenKind} {ts : List α} {ps : List (Parsed α (Statement (Leaf α)))}
    (h : ReadsAll sentinel closers ts ps) :
    ∀ closing ∈ ps.flatMap fun p => p.value.closings, MissingAtEnd closing := by
  induction h with
  | nil => nofun
  | closer => nofun
  | @block closers t ts body others _ _ hbody _ ihbody ih =>
    rw [List.flatMap_cons, closings_blockOf]
    refine List.forall_mem_append.mpr ⟨List.forall_mem_append.mpr ⟨ihbody, ?_⟩, ih⟩
    exact List.forall_mem_singleton.mpr
      (missingAtEnd_expect hsentinel (kind_mem_closers_of_readsAll hbody))
  | declaration _ _ _ ih => rwa [List.flatMap_cons, closings_declaration, List.nil_append]
  | expression _ _ ih => exact ih

end Parser

theorem StandsBehind.kind_eq {tokens : List Token} {sentinel : Token}
    (h : StandsBehind tokens sentinel) : sentinel.kind = .endToken := by
  cases h with
  | empty => rfl
  | last hkind => exact hkind
  | after => rfl

/-- **Trees are well shaped, with errors or without.** Whatever the kinds of a stream are, every
statement of its tree is built as the grammar demands, but for missing tokens where the grammar has
literals, closing parentheses and braces, semicolons and declared names. In the program that the
tree shows, whose leaves are made of the tokens of the stream in order, a closing brace is missing
only where the stream had an end of the input. -/
theorem parse_wellShaped {tokens : List Token} {tree : SyntaxTree} (h : parse tokens = .ok tree) :
    (∀ s ∈ tree.statements, s.WellShaped Token.kind) ∧
      ∃ (sentinel : Token) (taken : Nat) (program : Parser.Program Token),
        StandsBehind tokens sentinel ∧ program.tree = tree ∧
        program.leaves.flatMap Leaf.parts = tokens.takeD taken sentinel ∧
        ∀ closing ∈ program.statements.flatMap Statement.closings,
          closing.kind = .missingToken →
            ∃ token, closing.parts = [token] ∧ token.kind = .endToken := by
  obtain ⟨sentinel, hsentinel, rfl⟩ := exists_program_of_parse h
  have hbehind := standsBehind_of_sentinelOf hsentinel
  have hreads := Parser.reads_statements sentinel [.endToken] tokens
  refine ⟨List.forall_mem_map.mpr fun s hs => ?_, sentinel, Parser.taken sentinel tokens, _,
    hbehind, rfl, (Parser.took_program sentinel tokens).parts_eq, ?_⟩
  · exact (Parser.wellShaped_of_readsAll hreads s hs).map Leaf.kind_token
  · rw [Parser.program, Parser.parsed, List.flatMap_map]
    exact Parser.endToken_of_mem_closings hbehind.kind_eq hreads

/-- A block that is not closed, with a product in which a sum lacks its operand. -/
def unclosedBlock : List Token :=
  [{ kind := .leftCurlyBrace, value := "\x7b", span := ⟨0, 1⟩ },
    { kind := .identifier, value := "a", span := ⟨1, 1⟩ },
    { kind := .asterisk, value := "*", span := ⟨2, 1⟩ },
    { kind := .leftParen, value := "(", span := ⟨3, 1⟩ },
    { kind := .plus, value := "+", span := ⟨4, 1⟩ }, .endAt 5]

theorem parse_wellShaped_unclosedBlock :
    ∃ tree, parse unclosedBlock = .ok tree ∧
      (∀ s ∈ tree.statements, s.WellShaped Token.kind) ∧
      ∃ (sentinel : Token) (taken : Nat) (program : Parser.Program Token),
        StandsBehind unclosedBlock sentinel ∧ program.tree = tree ∧
        program.leaves.flatMap Leaf.parts = unclosedBlock.takeD taken sentinel ∧
        ∀ closing ∈ program.statements.flatMap Statement.closings,
          closing.kind = .missingToken →
            ∃ token, closing.parts = [token] ∧ token.kind = .endToken := by
  have hsentinel : sentinelOf unclosedBlock = .ok (.endAt 5) := rfl
  exact ⟨_, parse_of_sentinelOf hsentinel, parse_wellShaped (parse_of_sentinelOf hsentinel)⟩

end LosslessSyntax
