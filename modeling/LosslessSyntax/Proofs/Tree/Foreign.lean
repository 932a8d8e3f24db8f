import LosslessSyntax.Proofs.Tree.Validity

/-!
# Kinds that a tree does not have

Some kinds belong to no leaf of the grammar and to no part of an operator: those of blank tokens and
of bad characters. Wherever the parser takes a token of such a kind it expects another one, so the
token is reported as an error in its place, and none is passed over (`map_filter_diagnostics`).
-/

namespace LosslessSyntax

/-- No token of a tree and no part of a compound operator is of certain kinds. -/
structure Foreign (p : TokenKind → Bool) : Prop where
  tree : ∀ kind ∈ .missingToken :: .endToken :: leafKinds, p kind = false
  operator : ∀ compound ∈ compoundOperators, ∀ kind ∈ compound.1, p kind = false

/-- A token of a tree is a missing one, the end of the input, or of a kind that the grammar has. -/
theorem kind_mem_of_mem_tokens (sentinel : Token) (ts : List Token) :
    ∀ token ∈ (Parser.program sentinel ts).tree.tokens,
      token.kind ∈ .missingToken :: .endToken :: leafKinds := by
  have hshaped := Parser.wellShaped_of_readsAll (Parser.reads_statements sentinel [.endToken] ts)
  have hfits : ∀ leaf ∈ (Parser.program sentinel ts).leaves,
      Fits Leaf.kind (.endToken :: leafKinds) leaf := by
    refine List.forall_mem_append.mpr ⟨fun leaf hleaf => ?_, List.forall_mem_singleton.mpr ?_⟩
    · obtain ⟨s, hs, hleaf⟩ := List.mem_flatMap.mp hleaf
      exact ((hshaped s hs).fits leaf hleaf).mono (List.subset_cons_self _ _)
    · exact (Parser.fits_expect sentinel [.endToken] _).mono (by decide)
  rw [tokens_tree]
  refine List.forall_mem_map.mpr fun leaf hleaf => ?_
  rw [Leaf.kind_token]
  rcases hfits leaf hleaf with hmem | hmissing
  · exact List.mem_cons_of_mem _ hmem
  · exact hmissing ▸ List.mem_cons_self

/-- The errors about tokens of foreign kinds are those of the ones that the tree uses up. -/
theorem Conserves.map_filter {p : TokenKind → Bool} (hp : Foreign p) {used tokens : List Token}
    {errors : List ParseError} (h : Conserves used tokens errors)
    (htokens : ∀ token ∈ tokens, p token.kind = false) :
    (errors.filter (p ·.found)).map (fun error => (error.found, error.span)) =
      (used.filter (p ·.kind)).map fun token => (token.kind, token.span) := by
  induction h with
  | nil => rfl
  | unchanged _ _ ih =>
    obtain ⟨htoken, htokens⟩ := List.forall_mem_cons.mp htokens
    rw [List.filter_cons_of_neg (by simp [htoken]), ih htokens]
  | @missing token _ _ _ _ _ _ ih =>
    have ih := ih (List.forall_mem_cons.mp htokens).2
    cases hkind : p token.kind with
    | true =>
      rw [List.filter_cons_of_pos (by exact hkind), List.filter_cons_of_pos (by exact hkind),
        List.map_cons, ih, List.map_cons]
    | false =>
      rw [List.filter_cons_of_neg (by simp [hkind]), List.filter_cons_of_neg (by simp [hkind]), ih]
  | @compound _ _ first _ others used _ _ hspelling _ _ _ _ _ ih =>
    have hnil : (first :: others).filter (p ·.kind) = [] :=
      List.filter_eq_nil_iff.mpr fun token htoken => by
        simp [hp.operator _ hspelling token.kind (List.mem_map_of_mem htoken)]
    rw [List.filter_append, hnil, List.nil_append, ih (List.forall_mem_cons.mp htokens).2]

/-- Each token of a foreign kind before the end of the input is reported as an error, in order. -/
theorem map_filter_diagnostics {p : TokenKind → Bool} (hp : Foreign p) {tokens : List Token}
    {tree : SyntaxTree} (h : parse tokens = .ok tree)
    (hend : ∀ token ∈ tokens.dropLast, token.kind ≠ .endToken) :
    (tree.diagnostics.filter (p ·.found)).map (fun error => (error.found, error.span)) =
      (tokens.filter (p ·.kind)).map fun token => (token.kind, token.span) := by
  obtain ⟨sentinel, hsentinel, rfl⟩ := exists_program_of_parse h
  have hkind : p sentinel.kind = false := by
    rw [(standsBehind_of_sentinelOf hsentinel).kind_eq]
    exact hp.tree _ (List.mem_cons_of_mem _ List.mem_cons_self)
  rw [(conserves_tree sentinel tokens).map_filter hp
      fun token htoken => hp.tree _ (kind_mem_of_mem_tokens sentinel tokens token htoken),
    Parser.takeD_eq_append_replicate (Parser.length_le_taken sentinel hend), List.filter_append,
    List.filter_replicate_of_neg (by simp [hkind]), List.append_nil]

end LosslessSyntax
