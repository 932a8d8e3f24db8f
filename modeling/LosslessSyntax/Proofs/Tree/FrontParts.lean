import LosslessSyntax.Proofs.Token.Consecutive
import LosslessSyntax.Proofs.Tree.Extents
import LosslessSyntax.Proofs.Tree.RoundTrip
import LosslessSyntax.Proofs.Tree.Totality

/-!
# The tree of a front part of a text's tokens

Whatever number of the tokens of a text is parsed, with or without the end of the input behind them,
the tokens that the parser uses make up the same front part of the text: the sentinel that it puts
behind them stands just where the last of them and its trivia end (`exists_consecutive_takeD`). So
do the tokens of the tree, since a compound operator is written as the tokens that it is put
together from are, side by side (`Conserves.consecutive`). Hence the spans of such a tree fit the
text (`exists_spansFit_of_take_tokenize`).
-/

namespace LosslessSyntax

/-! ### Consecutive tokens of a tree -/

/-- The tokens of a tree are consecutive where those that it uses are. -/
theorem Conserves.consecutive {used tokens : List Token} {errors : List ParseError}
    (h : Conserves used tokens errors) (hspelled : ∀ token ∈ used, token.Spelled)
    {front cs : List Char} (hused : Consecutive front used cs) : Consecutive front tokens cs := by
  induction h generalizing front cs with
  | nil => exact hused
  | unchanged _ _ ih | missing _ _ ih =>
    cases hused with
    | cons hleading hspan htrailing hothers =>
      exact .cons hleading hspan htrailing (ih (List.forall_mem_cons.mp hspelled).2 hothers)
  | @compound operator text first last others used tokens errors hspelling _ htouch hlast htext _
      ih =>
    obtain ⟨hparts, hrest⟩ := List.forall_mem_append.mp hspelled
    obtain ⟨ds, es, rfl, hds, hes⟩ := hused.exists_of_append
    obtain ⟨before, value, after, rfl, hvalue, hbefore, hstart, hafter⟩ :=
      hds.exists_of_isChain htouch hlast
    -- The parts of the operator are written as the operator is.
    rw [join_value_of_mem_compoundOperators hspelling htext hparts] at hvalue
    subst hvalue
    have hsize : text.utf8ByteSize = byteLength text.toList := (byteLength_toList text).symm
    rw [← hsize] at hafter
    simp only [List.append_assoc]
    refine .cons hbefore ?_ hafter (ih hrest hes)
    rw [hstart, hsize]

/-- Behind consecutive tokens without an end of the input stands one, just where their stretch of
the text ends. -/
theorem Consecutive.sentinelOf_eq {tokens : List Token} {front : List Char}
    (h : Consecutive [] tokens front) (hkind : ∀ token ∈ tokens, token.kind ≠ .endToken) :
    sentinelOf tokens = .ok (.endAt (byteLength front)) := by
  rcases List.eq_nil_or_concat tokens with rfl | ⟨body, last, rfl⟩
  · cases h
    rfl
  · rw [List.concat_eq_append] at h hkind ⊢
    obtain ⟨span, hspan, hstop⟩ := h.fullSpan_last
    rw [List.nil_append] at hstop
    rw [sentinelOf_append_singleton, hspan, ← hstop]
    have hne := hkind last (List.mem_append_right body (List.mem_singleton_self last))
    exact congrArg Except.ok (if_neg hne)

/-- The tokens that the parser uses for some of the tokens of a text, from the first on, make up the
same front part of the text as these do. -/
theorem exists_consecutive_takeD (text : String) (count : Nat) :
    ∃ (sentinel : Token) (used : List Token) (front back : List Char),
      text.toList = front ++ back ∧ Consecutive [] ((tokenize text).take count) front ∧
      sentinelOf ((tokenize text).take count) = .ok sentinel ∧
      ((tokenize text).take count).takeD (Parser.taken sentinel ((tokenize text).take count))
        sentinel = used ∧
      Consecutive [] used front ∧ ∀ token ∈ used, token.Spelled := by
  obtain ⟨body, leading, htokens, hbody, -⟩ := tokenize_eq_append text
  have hconsecutive := consecutive_tokenize text
  by_cases hcount : count ≤ body.length
  -- The end of the text is not among the tokens.
  · have htake : (tokenize text).take count = body.take count := by
      rw [htokens, List.take_append_of_le_length hcount]
    have hpart : ∀ token ∈ body.take count, token.kind ≠ .endToken ∧ token.Spelled :=
      fun token htoken => hbody token (List.mem_of_mem_take htoken)
    rw [← List.take_append_drop count (tokenize text), htake] at hconsecutive
    obtain ⟨front, back, htext, hfront, -⟩ := hconsecutive.exists_of_append
    have hlength : (body.take count).length ≤
        Parser.taken (.endAt (byteLength front)) (body.take count) :=
      Parser.length_le_taken _ fun token htoken =>
        (hpart token (List.mem_of_mem_dropLast htoken)).1
    have hend (n : Nat) := hfront.append (Consecutive.replicate_endAt front n)
    simp only [List.append_nil] at hend
    have hspelled : (Token.endAt (byteLength front)).Spelled := fun _ => nofun
    rw [htake]
    refine ⟨_, _, front, back, htext, hfront,
      hfront.sentinelOf_eq fun token htoken => (hpart token htoken).1,
      Parser.takeD_eq_append_replicate hlength _, hend _, ?_⟩
    exact spelled_append_replicate (fun token htoken => (hpart token htoken).2) hspelled _
  · have htake : (tokenize text).take count = tokenize text := by
      refine List.take_of_length_le ?_
      rw [htokens, List.length_append, List.length_singleton]
      omega
    obtain ⟨sentinel, n, hsentinel, htaken, hcopies, hspelled⟩ :=
      exists_takeD_eq_append_replicate text
    rw [htake]
    refine ⟨sentinel, _, text.toList, [], (List.append_nil _).symm, hconsecutive, hsentinel,
      htaken, ?_, hspelled⟩
    rcases hcopies with rfl | rfl
    · rwa [List.replicate_zero, List.append_nil]
    · have hend := hconsecutive.append (Consecutive.replicate_endAt text.toList n)
      rwa [List.append_nil, byteLength_toList] at hend

/-! ### The spans of a tree -/

/-- The spans of a tree are those at which a source has its tokens, and fit into one another. -/
structure SyntaxTree.SpansFit (tree : SyntaxTree) (source : Source) : Prop where
  /-- The source has each token at its span. -/
  slice : ∀ token ∈ tree.tokens, source.slice token.span = .ok token.value
  /-- The spans of the tokens are in order and do not overlap. -/
  pairwise : tree.tokens.Pairwise fun a b => a.span.stop ≤ b.span.start
  /-- Each statement has a span, and those of its children are in it, one after the other. -/
  statements : ∀ s ∈ tree.statementNodes, (Node.statement s).Placed
  /-- Each expression has a span, and those of its children are in it, one after the other. -/
  expressions : ∀ e ∈ tree.expressionNodes, (Node.expression e).Placed
  /-- The statements of the tree and the end of the input stand one after the other. -/
  children : tree.children.Pairwise Node.Precedes
  /-- The tree has a dump, which shows each assignment with its span. -/
  dump : ∃ rows, Statement.outlineOfAll 0 tree.statements = .ok rows ∧
    dumpTree tree = .ok (rows ++ .token 0 "end" tree.endOfFile).render ∧
    (tree.expressionNodes.filter Expression.isAssignment).map Expression.span =
      rows.assignmentSpans.map .ok

/-- The spans of a tree whose tokens are consecutive in a front part of a text fit that text. -/
theorem SyntaxTree.spansFit_of_consecutive {tree : SyntaxTree} {text : String}
    {front back : List Char} (htext : text.toList = front ++ back)
    (h : Consecutive [] tree.tokens front) : tree.SpansFit (Source.ofString text) where
  slice := by
    have hslice := h.slice back
    rwa [List.nil_append, ← htext, String.ofList_toList] at hslice
  pairwise := h.pairwise
  statements := placed_statementNodes h.pairwise
  expressions := placed_expressionNodes h.pairwise
  children := Node.pairwise_precedes (tree.flatMap_leaves_children ▸ h.pairwise)
  dump := by
    have hordered : Span.Ordered (tree.tokens.map Token.span) :=
      List.pairwise_map.mpr (h.pairwise.imp fun hab => Nat.le_trans (Nat.le_add_right _ _) hab)
    have hstatements := hordered.of_sublist (List.sublist_append_left _ _)
    rw [← Statement.leavesOfAll_eq_flatMap] at hstatements
    obtain ⟨rows, hrows⟩ := Statement.exists_outlineOfAll 0 tree.statements hstatements
    refine ⟨rows, hrows, ?_, ?_⟩
    · simp only [dumpTree, hrows]
      rfl
    · rw [expressionNodes, statementNodes, ← Statement.nodesOfAll_eq_flatMap]
      exact Statement.map_span_assignmentsOfAll tree.statements hrows

/-- **The spans of a tree are sound.** Take any number of the tokens of a text, from the first on.
They have a tree, however malformed they are, and its tokens make up the same front part of the text
as they do. Each token of the tree, an operator that is put together and a missing token too, has
the value that the text has at its span, and the spans of the tokens are in order. Every statement
and expression has a span, from the start of its first token to the end of its last, which holds
those of its children, one after the other. So the tree has a dump, and the span that this shows for
an assignment is the span of the assignment. -/
theorem exists_spansFit_of_take_tokenize (text : String) (count : Nat) :
    ∃ (tree : SyntaxTree) (front back : List Char), text.toList = front ++ back ∧
      Consecutive [] ((tokenize text).take count) front ∧
      parse ((tokenize text).take count) = .ok tree ∧ Consecutive [] tree.tokens front ∧
      tree.SpansFit (Source.ofString text) := by
  obtain ⟨sentinel, used, front, back, htext, hstream, hsentinel, hused, hconsecutive, hspelled⟩ :=
    exists_consecutive_takeD text count
  have hconserves := conserves_tree sentinel ((tokenize text).take count)
  rw [hused] at hconserves
  have htokens := hconserves.consecutive hspelled hconsecutive
  exact ⟨_, front, back, htext, hstream, parse_of_sentinelOf hsentinel, htokens,
    SyntaxTree.spansFit_of_consecutive htext htokens⟩

end LosslessSyntax
