import LosslessSyntax.Diagnostic.Merged
import LosslessSyntax.Proofs.Diagnostic.Items
import LosslessSyntax.Tree.Strict

/-!
# The first error

The errors of a tree stand in the order of their starts (`ordered_diagnostics`). So the first of
them is the one that starts first, and the diagnostics of a program begin with it or with the first
error of the text, whichever starts earlier (`diagnostics_of_lexicalErrors_eq_nil`,
`head?_diagnostics_eq_lexical_iff`).

Strict parsing looks at the errors of the text before those of the tree, wherever they are. What it
answers is therefore the first diagnostic unless an error of the tree starts before the first one of
the text (`parseStrict_eq_error_iff`); in a text that begins with a misplaced token and goes on with
a bad character it is the second (`parseStrict_misplaced`).
-/

namespace LosslessSyntax

/-! ### The first diagnostic -/

theorem sorted_lexicalErrors (tokens : List Token) :
    (lexicalErrors tokens).Pairwise fun a b => a.span.start ≤ b.span.start :=
  pairwise_mergeSort_key (fun error : LexicalError => error.span.start) _

theorem sorted_diagnostics (tokens : List Token) (tree : SyntaxTree) :
    (diagnostics tokens tree).Pairwise fun a b => a.span.start ≤ b.span.start :=
  pairwise_mergeSort_key (fun error : Diagnostic => error.span.start) _

/-- A stream has no errors if none of its tokens has. -/
theorem lexicalErrors_eq_nil_iff {tokens : List Token} :
    lexicalErrors tokens = [] ↔ ∀ token ∈ tokens, token.errors = [] := by
  rw [lexicalErrors, ← List.length_eq_zero_iff, List.length_mergeSort, List.length_eq_zero_iff,
    List.flatMap_eq_nil_iff]

theorem mem_diagnostics {tokens : List Token} {tree : SyntaxTree} {error : Diagnostic} :
    error ∈ diagnostics tokens tree ↔
      (∃ flaw ∈ lexicalErrors tokens, .lexical flaw = error) ∨
        ∃ other ∈ tree.diagnostics, .grammatical other = error := by
  rw [diagnostics, List.mem_mergeSort, List.mem_append, List.mem_map, List.mem_map]

/-- There are no diagnostics if neither the text nor the tree has an error. -/
theorem diagnostics_eq_nil_iff {tokens : List Token} {tree : SyntaxTree} :
    diagnostics tokens tree = [] ↔ lexicalErrors tokens = [] ∧ tree.diagnostics = [] := by
  rw [diagnostics, ← List.length_eq_zero_iff, List.length_mergeSort, List.length_eq_zero_iff,
    List.append_eq_nil_iff, List.map_eq_nil_iff, List.map_eq_nil_iff]

/-- Without errors of the text the diagnostics are the errors of the tree, if these are in order. -/
theorem diagnostics_of_lexicalErrors_eq_nil {tokens : List Token} {tree : SyntaxTree}
    (hlexical : lexicalErrors tokens = [])
    (hordered : Span.Ordered (tree.diagnostics.map ParseError.span)) :
    diagnostics tokens tree = tree.diagnostics.map Diagnostic.grammatical := by
  have hpairwise := List.pairwise_map.mp hordered
  rw [diagnostics, hlexical, List.map_nil, List.nil_append]
  refine mergeSort_key_of_pairwise (fun error : Diagnostic => error.span.start) ?_
  exact (List.pairwise_map (R := fun a b : Diagnostic => a.span.start ≤ b.span.start)).mpr hpairwise

/-- The first error of the text is the first diagnostic if no error of the tree starts before it. -/
theorem head?_diagnostics_eq_lexical_iff {tokens : List Token} {flaw : LexicalError}
    {flaws : List LexicalError} (h : lexicalErrors tokens = flaw :: flaws) (tree : SyntaxTree) :
    (diagnostics tokens tree).head? = some (.lexical flaw) ↔
      ∀ error ∈ tree.diagnostics, flaw.span.start ≤ error.span.start := by
  constructor
  · intro hhead error herror
    obtain ⟨others, hdiagnostics⟩ := List.head?_eq_some_iff.mp hhead
    have hsorted := sorted_diagnostics tokens tree
    have hmem : .grammatical error ∈ diagnostics tokens tree :=
      mem_diagnostics.mpr (.inr ⟨error, herror, rfl⟩)
    rw [hdiagnostics] at hsorted hmem
    rcases List.mem_cons.mp hmem with heq | hmem
    · cases heq
    · exact List.rel_of_pairwise_cons hsorted hmem
  · intro hle
    have hflaws : ∀ other ∈ flaws, flaw.span.start ≤ other.span.start := by
      have hsorted := sorted_lexicalErrors tokens
      rw [h] at hsorted
      exact fun other hother => List.rel_of_pairwise_cons hsorted hother
    rw [diagnostics, h, List.map_cons, List.cons_append]
    refine head?_mergeSort_key (fun error : Diagnostic => error.span.start)
      (List.forall_mem_append.mpr ⟨?_, ?_⟩)
    · exact List.forall_mem_map.mpr hflaws
    · exact List.forall_mem_map.mpr hle

/-! ### Strict parsing -/

theorem parseStrict_of_lexicalErrors_eq_cons {text : String} {flaw : LexicalError}
    {flaws : List LexicalError} (h : lexicalErrors (tokenize text) = flaw :: flaws) :
    parseStrict text = .ok (.error (.lexical flaw)) := by
  simp only [parseStrict, h]

theorem parseStrict_of_lexicalErrors_eq_nil {text : String} {tree : SyntaxTree}
    (h : lexicalErrors (tokenize text) = []) (htree : parse (tokenize text) = .ok tree) :
    parseStrict text = .ok (match tree.diagnostics with
      | error :: _ => .error (.grammatical error)
      | [] => .ok tree) := by
  simp only [parseStrict, h, htree]
  cases htree : tree.diagnostics <;> simp [bind, Except.bind, pure, Except.pure, htree]

/-- A text that is parsed strictly to a tree has this tree, and no errors at all. -/
theorem of_parseStrict_eq_ok {text : String} {tree : SyntaxTree}
    (h : parseStrict text = .ok (.ok tree)) :
    lexicalErrors (tokenize text) = [] ∧ parse (tokenize text) = .ok tree ∧
      tree.diagnostics = [] := by
  obtain ⟨other, hother⟩ := exists_parse_tokenize text
  cases hlexical : lexicalErrors (tokenize text) with
  | cons flaw flaws => cases (parseStrict_of_lexicalErrors_eq_cons hlexical).symm.trans h
  | nil =>
    rw [parseStrict_of_lexicalErrors_eq_nil hlexical hother, Except.ok.injEq] at h
    cases hdiagnostics : other.diagnostics with
    | cons error errors =>
      rw [hdiagnostics] at h
      cases h
    | nil =>
      rw [hdiagnostics] at h
      cases h
      exact ⟨rfl, hother, hdiagnostics⟩

/-- **Strict parsing and the first diagnostic.** Strict parsing answers with the tree of a text
exactly if there are no diagnostics. Else it answers with an error: with the first error of the text
if there is one, and this is the first diagnostic exactly if no error of the tree starts before it;
with the first diagnostic if there is none. -/
theorem parseStrict_eq_error_iff (text : String) :
    ∃ tree, parse (tokenize text) = .ok tree ∧
      (parseStrict text = .ok (.ok tree) ↔ diagnostics (tokenize text) tree = []) ∧
      (∀ flaw ∈ (lexicalErrors (tokenize text)).head?,
        parseStrict text = .ok (.error (.lexical flaw))) ∧
      ∀ first ∈ (diagnostics (tokenize text) tree).head?,
        (parseStrict text = .ok (.error first) ↔
          ∀ flaw ∈ (lexicalErrors (tokenize text)).head?, ∀ error ∈ tree.diagnostics,
            flaw.span.start ≤ error.span.start) := by
  obtain ⟨tree, htree⟩ := exists_parse_tokenize text
  refine ⟨tree, htree, ?_⟩
  cases hlexical : lexicalErrors (tokenize text) with
  | nil =>
    have hdiagnostics :=
      diagnostics_of_lexicalErrors_eq_nil hlexical (ordered_diagnostics text htree)
    rw [parseStrict_of_lexicalErrors_eq_nil hlexical htree, hdiagnostics]
    cases tree.diagnostics with
    | nil => exact ⟨iff_of_true rfl rfl, nofun, nofun⟩
    | cons error others =>
      refine ⟨iff_of_false nofun nofun, nofun, ?_⟩
      rintro first ⟨⟩
      exact iff_of_true rfl nofun
  | cons flaw flaws =>
    have hne : diagnostics (tokenize text) tree ≠ [] := by
      rw [Ne, diagnostics_eq_nil_iff, hlexical]
      exact fun h => List.cons_ne_nil _ _ h.1
    rw [parseStrict_of_lexicalErrors_eq_cons hlexical]
    refine ⟨iff_of_false nofun hne, ?_, fun first hfirst => ?_⟩
    · rintro _ ⟨⟩
      rfl
    · have hiff := head?_diagnostics_eq_lexical_iff hlexical tree
      rw [Option.mem_def.mp hfirst, Option.some_inj] at hiff
      rw [List.head?_cons, Except.ok.injEq, Except.error.injEq, eq_comm, hiff]
      simp

/-- An equals sign without operands before a bad character: strict parsing answers with the bad
character, the first diagnostic is the equals sign. -/
theorem parseStrict_misplaced :
    parseStrict "=$" = .ok (.error (.lexical ⟨.unexpectedCharacter '$', ⟨1, 1⟩⟩)) ∧
      ∃ tree, parse (tokenize "=$") = .ok tree ∧
        (diagnostics (tokenize "=$") tree).head? =
          some (.grammatical ⟨literalKinds, .equals, ⟨0, 1⟩⟩) := by
  obtain ⟨tree, htree⟩ := exists_parse_tokenize "=$"
  have hlexical : lexicalErrors (tokenize "=$") = [⟨.unexpectedCharacter '$', ⟨1, 1⟩⟩] := by
    decide +kernel
  have hgrammatical : (parse (tokenize "=$")).map SyntaxTree.diagnostics =
      .ok [⟨literalKinds, .equals, ⟨0, 1⟩⟩, ⟨[.semicolon], .badToken, ⟨1, 1⟩⟩] := by
    decide +kernel
  rw [htree] at hgrammatical
  refine ⟨parseStrict_of_lexicalErrors_eq_cons hlexical, tree, htree, ?_⟩
  rw [diagnostics, hlexical, Except.ok.inj hgrammatical]
  simp [List.mergeSort, List.MergeSort.Internal.splitInTwo, Diagnostic.span]

end LosslessSyntax
